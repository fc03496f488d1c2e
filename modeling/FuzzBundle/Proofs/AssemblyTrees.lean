/-
  FuzzBundle.Proofs.AssemblyTrees — assembly as it is meant, and its tokens.

  The trees here are what the assembly of a contract can be: names and numbers that can stand in
  assembly text, expressions and statements. `Statement.At` says that a node is such a tree; it
  looks only at the fields that the tree is about. The text of such a node is made of the tokens of
  the tree, in this order and with nothing else between them than blanks and line feeds.

  Main statement: `Statement.At.lexesAs`.
-/
import FuzzBundle.Proofs.AssemblyTokens
import FuzzBundle.Solidity.Assembly

namespace FuzzBundle.Solidity.Assembly

/-! ## §1. Trees -/

/-- Words that name nothing, because they are read as something else. -/
def reserved : List String :=
  ["function", "let", "if", "switch", "case", "default", "for", "break", "continue", "leave",
    "true", "false", "hex"]

/-- Whether a text is a name: letters, digits, `_`, `$` and `.`, no digit in front, not reserved. -/
def IsName (s : String) : Prop :=
  s.toList.all isWordChar = true ∧ s.toList.head?.any (!·.isDigit) = true ∧ s ∉ reserved

instance (s : String) : Decidable (IsName s) := inferInstanceAs (Decidable (_ ∧ _ ∧ _))

/-- Whether characters are a number, decimal or hexadecimal. -/
def isNumeral : List Char → Bool
  | '0' :: 'x' :: digits => !digits.isEmpty && digits.all fun c => (Hex.value? c).isSome
  | digits => !digits.isEmpty && digits.all Char.isDigit

/-- A name of assembly. -/
abbrev Name := { s : String // IsName s }

/-- A number as it is written. -/
abbrev Numeral := { s : String // isNumeral s.toList = true }

/-- A literal. -/
inductive Literal where
  | number (value : Numeral)
  | bool (value : Bool)
  | text (value : String)
  deriving DecidableEq

/-- An expression. -/
inductive Expression where
  | name (x : Name)
  | literal (l : Literal)
  | call (function : Name) (arguments : List Expression)

mutual

/-- A statement. What may stand one or more times is a first one and the others. -/
inductive Statement where
  | block (body : List Statement)
  | declare (x : Name) (more : List Name) (value : Option Expression)
  | assign (x : Name) (more : List Name) (value : Expression)
  | run (function : Name) (arguments : List Expression)
  | cond (condition : Expression) (body : List Statement)
  | switch (on : Expression) (arms : List Arm)
  | loop (pre : List Statement) (condition : Expression) (post body : List Statement)
  | define (function : Name) (parameters returns : List Name) (body : List Statement)
  | breakLoop
  | continueLoop
  | leave

/-- An arm of a switch, for one value or for all others. -/
inductive Arm where
  | case (value : Literal) (body : List Statement)
  | default (body : List Statement)

end

/-! ## §2. The node of a tree -/

/-- A use of a name. -/
def Name.At (x : Name) (n : Node) : Prop := n.kind = .yulIdentifier ∧ n.name = x

/-- A declared name without a type. -/
def Name.DeclaredAt (x : Name) (n : Node) : Prop :=
  n.kind = .yulTypedName ∧ n.name = x ∧ n.string "type" = ""

def Literal.At : Literal → Node → Prop
  | .number value, n =>
    n.kind = .yulLiteral ∧ n.string "kind" = "number" ∧ n.string? "value" = some value.val
  | .bool value, n =>
    n.kind = .yulLiteral ∧ n.string "kind" = "bool" ∧ n.string? "value" = some (toString value)
  | .text value, n =>
    n.kind = .yulLiteral ∧ n.string "kind" = "string" ∧ n.string? "value" = some value

mutual

def Expression.At : Expression → Node → Prop
  | .name x, n => x.At n
  | .literal l, n => l.At n
  | .call function arguments, n =>
    n.kind = .yulFunctionCall ∧ n.HasChild "functionName" function.At
      ∧ AllExpressionsAt arguments (n.children "arguments")

def AllExpressionsAt : List Expression → List Node → Prop
  | [], ns => ns = []
  | e :: es, ns => ∃ m ms, ns = m :: ms ∧ e.At m ∧ AllExpressionsAt es ms

end

mutual

def Statement.At : Statement → Node → Prop
  | .block body, n => n.kind = .yulBlock ∧ AllStatementsAt body (n.children "statements")
  | .declare x more value, n =>
    n.kind = .yulVariableDeclaration
      ∧ List.Forall₂ Name.DeclaredAt (x :: more) (n.children "variables")
      ∧ (match value with
        | none => n.child? "value" = none
        | some e => n.HasChild "value" e.At)
  | .assign x more value, n =>
    n.kind = .yulAssignment ∧ List.Forall₂ Name.At (x :: more) (n.children "variableNames")
      ∧ n.HasChild "value" value.At
  | .run function arguments, n =>
    n.kind = .yulExpressionStatement
      ∧ n.HasChild "expression" (Expression.call function arguments).At
  | .cond condition body, n =>
    n.kind = .yulIf ∧ n.HasChild "condition" condition.At ∧ n.HasChild "body" fun b =>
      b.kind = .yulBlock ∧ AllStatementsAt body (b.children "statements")
  | .switch on arms, n =>
    n.kind = .yulSwitch ∧ n.HasChild "expression" on.At ∧ AllArmsAt arms (n.children "cases")
  | .loop pre condition post body, n =>
    n.kind = .yulForLoop
      ∧ (n.HasChild "pre" fun b =>
        b.kind = .yulBlock ∧ AllStatementsAt pre (b.children "statements"))
      ∧ n.HasChild "condition" condition.At
      ∧ (n.HasChild "post" fun b =>
        b.kind = .yulBlock ∧ AllStatementsAt post (b.children "statements"))
      ∧ (n.HasChild "body" fun b =>
        b.kind = .yulBlock ∧ AllStatementsAt body (b.children "statements"))
  | .define function parameters returns body, n =>
    n.kind = .yulFunctionDefinition ∧ n.name = function
      ∧ List.Forall₂ Name.DeclaredAt parameters (n.children "parameters")
      ∧ List.Forall₂ Name.DeclaredAt returns (n.children "returnVariables")
      ∧ (n.HasChild "body" fun b =>
        b.kind = .yulBlock ∧ AllStatementsAt body (b.children "statements"))
  | .breakLoop, n => n.kind = .yulBreak
  | .continueLoop, n => n.kind = .yulContinue
  | .leave, n => n.kind = .yulLeave

def AllStatementsAt : List Statement → List Node → Prop
  | [], ns => ns = []
  | s :: ss, ns => ∃ m ms, ns = m :: ms ∧ s.At m ∧ AllStatementsAt ss ms

def Arm.At : Arm → Node → Prop
  | .case value body, n =>
    n.kind = .yulCase ∧ n.HasChild "value" value.At ∧ n.HasChild "body" fun b =>
      b.kind = .yulBlock ∧ AllStatementsAt body (b.children "statements")
  | .default body, n =>
    n.kind = .yulCase ∧ n.string? "value" = some "default" ∧ n.HasChild "body" fun b =>
      b.kind = .yulBlock ∧ AllStatementsAt body (b.children "statements")

def AllArmsAt : List Arm → List Node → Prop
  | [], ns => ns = []
  | a :: as, ns => ∃ m ms, ns = m :: ms ∧ a.At m ∧ AllArmsAt as ms

end

/-! ## §3. The tokens of a tree -/

def Name.token (x : Name) : Token := .word x.val

/-- Names with commas between them. -/
def nameTokens (xs : List Name) : List Token :=
  [Token.mark ','].intercalate (xs.map fun x => [x.token])

def Literal.token : Literal → Token
  | .number value => .word value.val
  | .bool value => .word (toString value)
  | .text value => .quoted (Quoted.escapeChars value.toList)

/-- Tokens in braces. -/
def inBraces (tokens : List Token) : List Token := .mark '\x7b' :: (tokens ++ [.mark '\x7d'])

mutual

def Expression.tokens : Expression → List Token
  | .name x => [x.token]
  | .literal l => [l.token]
  | .call function arguments =>
    function.token :: .mark '(' ::
      ([Token.mark ','].intercalate (eachExpressionTokens arguments) ++ [.mark ')'])

def eachExpressionTokens : List Expression → List (List Token)
  | [] => []
  | e :: es => e.tokens :: eachExpressionTokens es

end

mutual

def Statement.tokens : Statement → List Token
  | .block body => inBraces (statementTokens body)
  | .declare x more none => .word "let" :: nameTokens (x :: more)
  | .declare x more (some value) =>
    .word "let" :: (nameTokens (x :: more) ++ .mark ':' :: .mark '=' :: value.tokens)
  | .assign x more value => nameTokens (x :: more) ++ .mark ':' :: .mark '=' :: value.tokens
  | .run function arguments => (Expression.call function arguments).tokens
  | .cond condition body => .word "if" :: (condition.tokens ++ inBraces (statementTokens body))
  | .switch on arms => .word "switch" :: (on.tokens ++ armTokens arms)
  | .loop pre condition post body =>
    .word "for" :: (inBraces (statementTokens pre) ++ condition.tokens
      ++ inBraces (statementTokens post) ++ inBraces (statementTokens body))
  | .define function parameters returns body =>
    .word "function" :: function.token :: .mark '(' :: (nameTokens parameters ++ .mark ')' ::
      ((if returns = [] then [] else .mark '-' :: .mark '>' :: nameTokens returns)
        ++ inBraces (statementTokens body)))
  | .breakLoop => [.word "break"]
  | .continueLoop => [.word "continue"]
  | .leave => [.word "leave"]

def statementTokens : List Statement → List Token
  | [] => []
  | s :: ss => s.tokens ++ statementTokens ss

def Arm.tokens : Arm → List Token
  | .case value body => .word "case" :: value.token :: inBraces (statementTokens body)
  | .default body => .word "default" :: inBraces (statementTokens body)

def armTokens : List Arm → List Token
  | [] => []
  | a :: as => a.tokens ++ armTokens as

end

/-! ## §4. The text of a tree has its tokens -/

theorem IsName.ne_empty {s : String} (h : IsName s) : s ≠ "" := by
  rintro rfl
  exact absurd h.2.1 (by decide)

theorem Name.lexesAs (x : Name) : LexesAs x.val.toList [x.token] :=
  lexesAs_word x.property.ne_empty x.property.1

theorem isWordChar_of_isDigit {c : Char} (h : c.isDigit = true) : isWordChar c = true := by
  simp [isWordChar, Char.isAlphanum, h]

theorem isWordChar_of_hexDigit {c : Char} (h : (Hex.value? c).isSome = true) :
    isWordChar c = true := by
  have between {a b : Char} (h : a ≤ c ∧ c ≤ b) : (c.val ≥ a.val && c.val ≤ b.val) = true :=
    Bool.and_eq_true_iff.2 ⟨decide_eq_true h.1, decide_eq_true h.2⟩
  have letter (h : c.isUpper = true ∨ c.isLower = true) : isWordChar c = true := by
    show (c.isUpper || c.isLower || c.isDigit || c == '_' || c == '$' || c == '.') = true
    rcases h with h | h <;> simp [h]
  unfold Hex.value? at h
  split at h
  · next digit => exact isWordChar_of_isDigit (between digit)
  split at h
  · next lower =>
    exact letter (.inr (between (a := 'a') (b := 'z') ⟨lower.1, Char.le_trans lower.2 (by decide)⟩))
  split at h
  · next upper =>
    have : 'A' ≤ c ∧ c ≤ 'Z' := ⟨upper.1, Char.le_trans upper.2 (by decide)⟩
    exact letter (.inl (decide_eq_true this))
  · cases h

/-- A number is a word that begins with a digit. -/
theorem isNumeral_word {cs : List Char} (h : isNumeral cs = true) :
    cs.all isWordChar = true ∧ cs.head?.any Char.isDigit = true := by
  unfold isNumeral at h
  split at h
  · next digits =>
    simp only [Bool.and_eq_true, List.all_eq_true] at h
    refine ⟨?_, rfl⟩
    rw [List.all_cons, List.all_cons, Bool.and_eq_true, Bool.and_eq_true, List.all_eq_true]
    exact ⟨by decide, by decide, fun c hc => isWordChar_of_hexDigit (h.2 c hc)⟩
  · simp only [Bool.and_eq_true, List.all_eq_true, Bool.not_eq_true', List.isEmpty_eq_false_iff]
      at h
    refine ⟨List.all_eq_true.2 fun c hc => isWordChar_of_isDigit (h.2 c hc), ?_⟩
    obtain ⟨c, digits, rfl⟩ := List.exists_cons_of_ne_nil h.1
    exact h.2 c List.mem_cons_self

variable {n : Node}

theorem Name.At.lexesAs {x : Name} (h : x.At n) : LexesAs (print n).toList [x.token] := by
  obtain ⟨kind, name⟩ := h
  rw [print_eq, layout]
  simp only [kind, name]
  exact x.lexesAs

theorem Name.DeclaredAt.lexesAs {x : Name} (h : x.DeclaredAt n) :
    LexesAs (print n).toList [x.token] := by
  obtain ⟨kind, name, untyped⟩ := h
  rw [print_eq, layout]
  simp only [kind, typedName, untyped, if_true, name]
  exact x.lexesAs

/-- How a literal is written. -/
def Literal.written : Literal → String
  | .number value => value.val
  | .bool value => toString value
  | .text value => Quoted.literal value

theorem Literal.At.print_eq {l : Literal} (h : l.At n) : print n = l.written := by
  rw [Assembly.print_eq, layout]
  cases l <;> obtain ⟨kind, form, spelled⟩ := h <;>
    simp [kind, literalLayout, form, spelled, Literal.written]

theorem Literal.lexesAs (l : Literal) : LexesAs l.written.toList [l.token] := by
  cases l with
  | number value =>
    obtain ⟨word, digit⟩ := isNumeral_word value.property
    refine lexesAs_word ?_ word
    intro empty
    rw [show value.val = "" from empty] at digit
    exact absurd digit (by decide)
  | bool value => cases value <;> exact lexesAs_word (by decide) (by decide)
  | text value => exact lexesAs_literal value

theorem Literal.At.lexesAs {l : Literal} (h : l.At n) : LexesAs (print n).toList [l.token] := by
  rw [h.print_eq]
  exact l.lexesAs

/-- The texts of nodes, each with the tokens of its tree. -/
theorem allLexAs_map {α : Type} {At : α → Node → Prop} {tokens : α → List Token} {items : List α}
    {ns : List Node} (h : List.Forall₂ At items ns)
    (each : ∀ a n, At a n → LexesAs (print n).toList (tokens a)) :
    AllLexAs (ns.map print) (items.map tokens) := by
  induction h with
  | nil => exact .nil
  | cons head _ ih => exact .cons (each _ _ head) ih

theorem lexesAs_names {xs : List Name} {ns : List Node} (h : List.Forall₂ Name.At xs ns) :
    LexesAs (commaList (ns.map print)).toList (nameTokens xs) :=
  lexesAs_commaList (allLexAs_map h fun _ _ => Name.At.lexesAs)

theorem lexesAs_declared {xs : List Name} {ns : List Node}
    (h : List.Forall₂ Name.DeclaredAt xs ns) :
    LexesAs (commaList (ns.map print)).toList (nameTokens xs) :=
  lexesAs_commaList (allLexAs_map h fun _ _ => Name.DeclaredAt.lexesAs)

theorem LexesAs.child {key : String} {p : Node → Prop} {ts : List Token} (h : n.HasChild key p)
    (each : ∀ c, p c → LexesAs (print c).toList ts) :
    LexesAs (((n.child? key).map print).getD "").toList ts := by
  obtain ⟨c, hc, property⟩ := h
  rw [hc, Option.map_some, Option.getD_some]
  exact each c property

mutual

theorem Expression.At.lexesAs : (e : Expression) → (n : Node) → e.At n →
    LexesAs (print n).toList e.tokens
  | .name x, n, h => by
    rw [Expression.At] at h
    exact h.lexesAs
  | .literal l, n, h => by
    rw [Expression.At] at h
    exact h.lexesAs
  | .call function arguments, n, h => by
    rw [Expression.At] at h
    obtain ⟨kind, called, given⟩ := h
    have name := LexesAs.child called fun _ => Name.At.lexesAs
    have list := lexesAs_commaList (allLexAs_expressions arguments _ given)
    rw [print_eq, layout]
    simp only [kind, String.toList_append, List.append_assoc]
    exact name.thenMark (by decide) (list.thenMark (by decide) lexesAs_nil)

theorem allLexAs_expressions : (es : List Expression) → (ns : List Node) →
    AllExpressionsAt es ns → AllLexAs (ns.map print) (eachExpressionTokens es)
  | [], ns, h => by
    rw [AllExpressionsAt] at h
    subst h
    exact .nil
  | e :: es, ns, h => by
    rw [AllExpressionsAt] at h
    obtain ⟨m, ms, rfl, head, tail⟩ := h
    exact .cons (Expression.At.lexesAs e m head) (allLexAs_expressions es ms tail)

end

/-! ## §5. Statements -/

/-- What is a node is no text. -/
theorem string?_eq_none {key : String} {c : Node} (h : n.child? key = some c) :
    n.string? key = none := by
  obtain ⟨value, field, node⟩ := Option.bind_eq_some_iff.1 h
  rw [Node.string?, field, Option.bind_some, ← Node.toJson_of_ofJson? node]
  rfl

theorem statementTokens_eq (ss : List Statement) :
    statementTokens ss = (ss.map Statement.tokens).flatten := by
  induction ss with
  | nil => rfl
  | cons s ss ih => rw [statementTokens, ih, List.map_cons, List.flatten_cons]

theorem armTokens_eq (arms : List Arm) : armTokens arms = (arms.map Arm.tokens).flatten := by
  induction arms with
  | nil => rfl
  | cons a arms ih => rw [armTokens, ih, List.map_cons, List.flatten_cons]

/-- A word, a blank, and what follows. -/
theorem LexesAs.afterWord {w spelled : String} {ds : List Char} {us : List Token}
    (spelling : spelled.toList = w.toList ++ [' ']) (present : w ≠ "")
    (word : w.toList.all isWordChar = true) (h : LexesAs ds us) :
    LexesAs (spelled.toList ++ ds) (.word w :: us) := by
  rw [spelling, List.append_assoc]
  exact (lexesAs_word present word).thenSpace (.inl rfl) h

/-- What is on the left of `:=` and what is on its right. -/
theorem LexesAs.becomes {cs ds : List Char} {ts us : List Token} (h : LexesAs cs ts)
    (h' : LexesAs ds us) :
    LexesAs (cs ++ (" := ".toList ++ ds)) (ts ++ .mark ':' :: .mark '=' :: us) :=
  h.thenSpace (.inl rfl) (((h'.space (.inl rfl)).mark (by decide)).mark (by decide))

theorem LexesAs.ne_empty {s : String} {ts : List Token} (h : LexesAs s.toList ts)
    (present : ts ≠ []) : s ≠ "" := by
  rintro rfl
  have none : some ([] : List Token) = some ts := h [] [] breaks_nil
  exact present (Option.some.inj none).symm

/-- The names that a function returns, with an arrow in front if there are any. -/
theorem lexesAs_returns {xs : List Name} {ns : List Node} {ds : List Char} {us : List Token}
    (h : List.Forall₂ Name.DeclaredAt xs ns) (h' : LexesAs ds us) :
    LexesAs (')' :: ((if commaList (ns.map print) = "" then ""
        else " -> " ++ commaList (ns.map print)).toList ++ ' ' :: ds))
      (.mark ')' :: ((if xs = [] then [] else .mark '-' :: .mark '>' :: nameTokens xs) ++ us)) := by
  have closing : isMark ')' = true := by decide
  cases h with
  | nil => exact (h'.space (.inl rfl)).mark closing
  | @cons x n xs ns head tail =>
    have list := lexesAs_declared (.cons head tail)
    have present : nameTokens (x :: xs) ≠ [] := by
      cases xs <;> simp [nameTokens, List.intercalate_cons_cons]
    rw [if_neg (list.ne_empty present), if_neg (List.cons_ne_nil x xs), String.toList_append,
      List.append_assoc]
    exact .mark closing (.space (.inl rfl)
      (.mark (by decide) (.mark (by decide) (.space (.inl rfl) (list.thenSpace (.inl rfl) h')))))

/-- A block, of which the statements are known. -/
theorem lexesAs_block {body : List Statement} (kind : n.kind = .yulBlock)
    (h : AllLexAs ((n.children "statements").map print) (body.map Statement.tokens)) :
    LexesAs (print n).toList (inBraces (statementTokens body)) := by
  rw [print_eq, layout, statementTokens_eq]
  simp only [kind]
  exact (lexesAs_joinLines h).braced

/-- A block in a field. -/
theorem LexesAs.body {key : String} {body : List Statement}
    (h : n.HasChild key fun b =>
      b.kind = .yulBlock ∧ AllStatementsAt body (b.children "statements"))
    (each : ∀ ns, AllStatementsAt body ns → AllLexAs (ns.map print) (body.map Statement.tokens)) :
    LexesAs (((n.child? key).map print).getD "").toList (inBraces (statementTokens body)) :=
  LexesAs.child h fun _ block => lexesAs_block block.1 (each _ block.2)

mutual

/-- **The text of a statement has the tokens of the statement.** -/
theorem Statement.At.lexesAs : (s : Statement) → (n : Node) → s.At n →
    LexesAs (print n).toList s.tokens
  | .block body, n, h => by
    rw [Statement.At] at h
    obtain ⟨kind, statements⟩ := h
    rw [Statement.tokens]
    exact lexesAs_block kind (allLexAs_statements body _ statements)
  | .declare x more none, n, h => by
    rw [Statement.At] at h
    obtain ⟨kind, names, absent⟩ := h
    rw [print_eq, layout, Statement.tokens]
    simp only [kind, absent, String.toList_append]
    exact .afterWord rfl (by decide) (by decide) (lexesAs_declared names)
  | .declare x more (some value), n, h => by
    rw [Statement.At] at h
    obtain ⟨kind, names, c, hc, there⟩ := h
    rw [print_eq, layout, Statement.tokens]
    simp only [kind, hc, String.toList_append, List.append_assoc, Option.map_some, Option.getD_some]
    exact .afterWord rfl (by decide) (by decide)
      ((lexesAs_declared names).becomes (Expression.At.lexesAs value c there))
  | .assign x more value, n, h => by
    rw [Statement.At] at h
    obtain ⟨kind, names, there⟩ := h
    rw [print_eq, layout, Statement.tokens]
    simp only [kind, String.toList_append, List.append_assoc]
    exact (lexesAs_names names).becomes (LexesAs.child there (Expression.At.lexesAs value))
  | .run function arguments, n, h => by
    rw [Statement.At] at h
    obtain ⟨kind, there⟩ := h
    rw [print_eq, layout, Statement.tokens]
    simp only [kind]
    exact LexesAs.child there (Expression.At.lexesAs (.call function arguments))
  | .cond condition body, n, h => by
    rw [Statement.At] at h
    obtain ⟨kind, there, block⟩ := h
    rw [print_eq, layout, Statement.tokens]
    simp only [kind, String.toList_append, List.append_assoc]
    exact .afterWord rfl (by decide) (by decide)
      ((LexesAs.child there (Expression.At.lexesAs condition)).thenSpace (.inl rfl)
        (LexesAs.body block (allLexAs_statements body)))
  | .switch on arms, n, h => by
    rw [Statement.At] at h
    obtain ⟨kind, there, cases⟩ := h
    rw [print_eq, layout, Statement.tokens, armTokens_eq]
    simp only [kind]
    have head : LexesAs ("switch " ++ ((n.child? "expression").map print).getD "").toList
        (.word "switch" :: on.tokens) := by
      rw [String.toList_append]
      exact .afterWord rfl (by decide) (by decide) (LexesAs.child there (Expression.At.lexesAs on))
    exact lexesAs_joinLines (.cons head (allLexAs_arms arms _ cases))
  | .loop pre condition post body, n, h => by
    rw [Statement.At] at h
    obtain ⟨kind, before, there, after, block⟩ := h
    rw [print_eq, layout, Statement.tokens]
    simp only [kind, String.toList_append, List.append_assoc]
    exact .afterWord rfl (by decide) (by decide)
      ((LexesAs.body before (allLexAs_statements pre)).thenSpace
        (.inl rfl)
      ((LexesAs.child there (Expression.At.lexesAs condition)).thenSpace (.inl rfl)
      ((LexesAs.body after (allLexAs_statements post)).thenSpace
        (.inl rfl)
      (LexesAs.body block (allLexAs_statements body)))))
  | .define function parameters returns body, n, h => by
    rw [Statement.At] at h
    obtain ⟨kind, name, taken, returned, block⟩ := h
    rw [print_eq, layout, Statement.tokens]
    simp only [kind, name, String.toList_append, List.append_assoc]
    exact .afterWord rfl (by decide) (by decide)
      (function.lexesAs.thenMark (by decide)
      ((lexesAs_declared taken).append (by decide)
      (lexesAs_returns returned
      (LexesAs.body block (allLexAs_statements body)))))
  | .breakLoop, n, h => by
    rw [Statement.At] at h
    rw [print_eq, layout, Statement.tokens]
    simp only [h]
    exact lexesAs_word (by decide) (by decide)
  | .continueLoop, n, h => by
    rw [Statement.At] at h
    rw [print_eq, layout, Statement.tokens]
    simp only [h]
    exact lexesAs_word (by decide) (by decide)
  | .leave, n, h => by
    rw [Statement.At] at h
    rw [print_eq, layout, Statement.tokens]
    simp only [h]
    exact lexesAs_word (by decide) (by decide)

theorem allLexAs_statements : (ss : List Statement) → (ns : List Node) → AllStatementsAt ss ns →
    AllLexAs (ns.map print) (ss.map Statement.tokens)
  | [], ns, h => by
    rw [AllStatementsAt] at h
    subst h
    exact .nil
  | s :: ss, ns, h => by
    rw [AllStatementsAt] at h
    obtain ⟨m, ms, rfl, head, tail⟩ := h
    exact .cons (Statement.At.lexesAs s m head) (allLexAs_statements ss ms tail)

theorem Arm.At.lexesAs : (a : Arm) → (n : Node) → a.At n → LexesAs (print n).toList a.tokens
  | .case value body, n, h => by
    rw [Arm.At] at h
    obtain ⟨kind, there, block⟩ := h
    have notDefault : n.string? "value" ≠ some "default" := by
      obtain ⟨c, hc, -⟩ := there
      rw [string?_eq_none hc]
      simp
    rw [print_eq, layout, Arm.tokens]
    simp only [kind, notDefault, if_false, String.toList_append, List.append_assoc]
    exact .afterWord rfl (by decide) (by decide)
      ((LexesAs.child there fun _ => Literal.At.lexesAs).thenSpace (.inl rfl)
        (LexesAs.body block (allLexAs_statements body)))
  | .default body, n, h => by
    rw [Arm.At] at h
    obtain ⟨kind, isDefault, block⟩ := h
    rw [print_eq, layout, Arm.tokens]
    simp only [kind, isDefault, if_true, String.toList_append]
    exact .afterWord rfl (by decide) (by decide)
      (LexesAs.body block (allLexAs_statements body))

theorem allLexAs_arms : (arms : List Arm) → (ns : List Node) → AllArmsAt arms ns →
    AllLexAs (ns.map print) (arms.map Arm.tokens)
  | [], ns, h => by
    rw [AllArmsAt] at h
    subst h
    exact .nil
  | a :: arms, ns, h => by
    rw [AllArmsAt] at h
    obtain ⟨m, ms, rfl, head, tail⟩ := h
    exact .cons (Arm.At.lexesAs a m head) (allLexAs_arms arms ms tail)

end

end FuzzBundle.Solidity.Assembly
