/-
  FuzzBundle.Proofs.ExpressionTrees — expressions with their parentheses, and their text.

  The trees here are expressions as they are written: an operator other than a prefix one stands
  between or behind operands that bind more tightly, and parentheses are nodes of their own. A run
  of prefix operators is kept as a list, because the text of such a run is the one place where two
  trees can meet. `Expr.At` says that a node is such a tree; it looks only at the fields that the
  tree is about. The text of a node is then a function of the tree.

  Main statement: `Expr.At.toList_expression`.
-/
import FuzzBundle.Solidity.Writer

namespace FuzzBundle.Solidity.Parenthesized

/-! ## §1. Words, numbers and operators -/

/-- A character of a name. -/
def isWordChar (c : Char) : Bool := c.isAlphanum || c == '_' || c == '$'

/-- Whether a text is letters, digits, `_` and `$`, with no digit in front. -/
def IsWord (s : String) : Prop :=
  s.toList.all isWordChar = true ∧ s.toList.head?.any (!·.isDigit) = true

instance (s : String) : Decidable (IsWord s) := inferInstanceAs (Decidable (_ ∧ _))

/-- The name of a member. -/
abbrev Word := { s : String // IsWord s }

/-- A name that stands for itself, so not the word of the operator. -/
abbrev Name := { s : String // IsWord s ∧ s ≠ "delete" }

/-- A digit, or a line that groups digits. -/
def isDigitChar (c : Char) : Bool := c.isDigit || c == '_'

/-- Whether a text is decimal digits, perhaps in groups. -/
def IsDigits (s : String) : Prop :=
  s.toList.all isDigitChar = true ∧ s.toList.head?.any Char.isDigit = true

instance (s : String) : Decidable (IsDigits s) := inferInstanceAs (Decidable (_ ∧ _))

abbrev Digits := { s : String // IsDigits s }

/-- The digits of a number: before a point, on both sides of it, or behind it. -/
inductive Significand where
  | whole (digits : Digits)
  | decimal (digits behind : Digits)
  | fraction (digits : Digits)

/-- The exponent of a number. -/
structure Exponent where
  upperCase : Bool
  negative : Bool
  digits : Digits

/-- A decimal number. -/
structure Numeral where
  significand : Significand
  exponent : Option Exponent

def Significand.text : Significand → List Char
  | .whole digits => digits.val.toList
  | .decimal digits behind => digits.val.toList ++ '.' :: behind.val.toList
  | .fraction digits => '.' :: digits.val.toList

def Exponent.text (e : Exponent) : List Char :=
  (if e.upperCase then 'E' else 'e') :: ((if e.negative then ['-'] else []) ++ e.digits.val.toList)

def Numeral.text (v : Numeral) : List Char :=
  v.significand.text ++ (v.exponent.map Exponent.text).getD []

/-- The units that a number may have. -/
def denominations : List String :=
  ["wei", "gwei", "szabo", "finney", "ether", "seconds", "minutes", "hours", "days", "weeks",
    "years"]

abbrev Denomination := { s : String // s ∈ denominations }

/-- An operator in front of its operand. -/
inductive Sign where
  | not
  | complement
  | negate
  | increment
  | decrement
  | delete
  deriving DecidableEq, Repr

def Sign.operator : Sign → String
  | .not => "!"
  | .complement => "~"
  | .negate => "-"
  | .increment => "++"
  | .decrement => "--"
  | .delete => "delete"

/-- An operator as it is written in front of its operand. -/
def Sign.text : Sign → List Char
  | .not => ['!']
  | .complement => ['~']
  | .negate => ['-']
  | .increment => ['+', '+']
  | .decrement => ['-', '-']
  | .delete => ['d', 'e', 'l', 'e', 't', 'e', ' ']

/-- An operator behind its operand. -/
inductive Step where
  | increment
  | decrement
  deriving DecidableEq, Repr

def Step.operator : Step → String
  | .increment => "++"
  | .decrement => "--"

def binaryOperators : List String :=
  ["**", "*", "/", "%", "+", "-", "<<", ">>", ">>>", "&", "^", "|", "<", ">", "<=", ">=", "==",
    "!=", "&&", "||"]

def assignmentOperators : List String :=
  ["=", "|=", "^=", "&=", "<<=", ">>=", ">>>=", "+=", "-=", "*=", "/=", "%="]

abbrev BinaryOperator := { s : String // s ∈ binaryOperators }

abbrev AssignmentOperator := { s : String // s ∈ assignmentOperators }

/-! ## §2. Trees -/

mutual

/-- An expression that nothing can take apart. Parentheses hold nothing, one expression, or two or
more components, some of which may be missing. -/
inductive Primary where
  | name (x : Name)
  | number (value : Numeral) (unit : Option Denomination)
  | member (base : Primary) (field : Word)
  | index (base : Primary) (place : Expr)
  | whole (base : Primary)
  | call (callee : Primary) (arguments : List Expr)
  | array (components : List Expr)
  | nothing
  | parens (inner : Expr)
  | tuple (first second : Component) (more : List Component)

/-- A primary expression, perhaps with an operator behind it, and the prefix operators over that,
outermost first. -/
inductive Operand where
  | mk (signs : List Sign) (core : Primary) (after : Option Step)

/-- Any expression. -/
inductive Expr where
  | operand (o : Operand)
  | binary (left : Operand) (operator : BinaryOperator) (right : Operand)
  | assign (left : Operand) (operator : AssignmentOperator) (right : Operand)
  | conditional (condition yes no : Operand)

/-- A component of a tuple. -/
inductive Component where
  | missing
  | given (e : Expr)

end

/-! ## §3. The text of a tree -/

/-- Prefix operators as they are written. -/
def signsText (signs : List Sign) : List Char := signs.flatMap Sign.text

/-- Texts with a comma and a blank between them. -/
def listText (texts : List (List Char)) : List Char := [',', ' '].intercalate texts

mutual

def Primary.text : Primary → List Char
  | .name x => x.val.toList
  | .number value none => value.text
  | .number value (some unit) => value.text ++ ' ' :: unit.val.toList
  | .member base field => base.text ++ '.' :: field.val.toList
  | .index base place => base.text ++ '[' :: (place.text ++ [']'])
  | .whole base => base.text ++ ['[', ']']
  | .call callee arguments => callee.text ++ '(' :: (listText (eachText arguments) ++ [')'])
  | .array components => '[' :: (listText (eachText components) ++ [']'])
  | .nothing => ['(', ')']
  | .parens inner => '(' :: (inner.text ++ [')'])
  | .tuple first second more =>
    '(' :: (listText (first.text :: second.text :: eachComponentText more) ++ [')'])

def Operand.text : Operand → List Char
  | .mk signs core none => signsText signs ++ core.text
  | .mk signs core (some step) => signsText signs ++ (core.text ++ step.operator.toList)

def Expr.text : Expr → List Char
  | .operand o => o.text
  | .binary left operator right => left.text ++ ' ' :: (operator.val.toList ++ ' ' :: right.text)
  | .assign left operator right => left.text ++ ' ' :: (operator.val.toList ++ ' ' :: right.text)
  | .conditional condition yes no =>
    condition.text ++ ' ' :: '?' :: ' ' :: (yes.text ++ ' ' :: ':' :: ' ' :: no.text)

def Component.text : Component → List Char
  | .missing => []
  | .given e => e.text

def eachText : List Expr → List (List Char)
  | [] => []
  | e :: es => e.text :: eachText es

def eachComponentText : List Component → List (List Char)
  | [] => []
  | c :: cs => c.text :: eachComponentText cs

end

/-! ## §4. The node of a tree -/

/-- An operation with one operand. -/
def UnaryAt (isPrefix : Bool) (operator : String) (operand : Node → Prop) (n : Node) : Prop :=
  n.kind = .unaryOperation ∧ n.flag "prefix" = isPrefix ∧ n.string "operator" = operator
    ∧ n.HasChild "subExpression" operand

/-- Prefix operations, one inside the other, around something. -/
def SignedAt (inner : Node → Prop) : List Sign → Node → Prop
  | [], n => inner n
  | sign :: signs, n => UnaryAt true sign.operator (SignedAt inner signs) n

mutual

def Primary.At : Primary → Node → Prop
  | .name x, n => n.kind = .identifier ∧ n.name = x
  | .number value unit, n =>
    n.kind = .literal ∧ n.string "kind" = "number" ∧ (n.string "value").toList = value.text
      ∧ n.string? "subdenomination" = unit.map (·.val)
  | .member base field, n =>
    n.kind = .memberAccess ∧ n.HasChild "expression" base.At ∧ n.string "memberName" = field
  | .index base place, n =>
    n.kind = .indexAccess ∧ n.HasChild "baseExpression" base.At
      ∧ n.HasChild "indexExpression" place.At
  | .whole base, n =>
    n.kind = .indexAccess ∧ n.HasChild "baseExpression" base.At ∧ n.child? "indexExpression" = none
  | .call callee arguments, n =>
    n.kind = .functionCall ∧ n.HasChild "expression" callee.At ∧ n.strings "names" = []
      ∧ AllAt arguments (n.children "arguments")
  | .array components, n =>
    n.kind = .tupleExpression ∧ n.flag "isInlineArray" = true
      ∧ ∃ ms, n.optionalChildren "components" = ms.map some ∧ AllAt components ms
  | .nothing, n =>
    n.kind = .tupleExpression ∧ n.flag "isInlineArray" = false
      ∧ n.optionalChildren "components" = []
  | .parens inner, n =>
    n.kind = .tupleExpression ∧ n.flag "isInlineArray" = false
      ∧ ∃ m, n.optionalChildren "components" = [some m] ∧ inner.At m
  | .tuple first second more, n =>
    n.kind = .tupleExpression ∧ n.flag "isInlineArray" = false
      ∧ ∃ m m' ms, n.optionalChildren "components" = m :: m' :: ms
        ∧ first.At m ∧ second.At m' ∧ AllComponentsAt more ms

def Operand.At : Operand → Node → Prop
  | .mk signs core none, n => SignedAt core.At signs n
  | .mk signs core (some step), n => SignedAt (UnaryAt false step.operator core.At) signs n

def Expr.At : Expr → Node → Prop
  | .operand o, n => o.At n
  | .binary left operator right, n =>
    n.kind = .binaryOperation ∧ n.string "operator" = operator
      ∧ n.HasChild "leftExpression" left.At ∧ n.HasChild "rightExpression" right.At
  | .assign left operator right, n =>
    n.kind = .assignment ∧ n.string "operator" = operator
      ∧ n.HasChild "leftHandSide" left.At ∧ n.HasChild "rightHandSide" right.At
  | .conditional condition yes no, n =>
    n.kind = .conditional ∧ n.HasChild "condition" condition.At
      ∧ n.HasChild "trueExpression" yes.At ∧ n.HasChild "falseExpression" no.At

def Component.At : Component → Option Node → Prop
  | .missing, m => m = none
  | .given e, m => ∃ c, m = some c ∧ e.At c

def AllAt : List Expr → List Node → Prop
  | [], ns => ns = []
  | e :: es, ns => ∃ m ms, ns = m :: ms ∧ e.At m ∧ AllAt es ms

def AllComponentsAt : List Component → List (Option Node) → Prop
  | [], ms => ms = []
  | c :: cs, ms => ∃ m ms', ms = m :: ms' ∧ c.At m ∧ AllComponentsAt cs ms'

end

/-! ## §5. The text of a node is the text of its tree -/

variable (w : Writer) {n : Node}

theorem expression_eq (n : Node) : w.expression n = expressionLayout w.print n :=
  w.print_eq .expression n

/-- The text of the node in a field. -/
theorem toList_child {key : String} {p : Node → Prop} {text : List Char} (h : n.HasChild key p)
    (each : ∀ c, p c → (w.expression c).toList = text) :
    (Inner.child w.print .expression n key).toList = text := by
  obtain ⟨c, hc, property⟩ := h
  rw [Inner.child, Inner.child?, hc, Option.map_some, Option.getD_some]
  exact each c property

theorem toList_commaList (items : List String) :
    (commaList items).toList = listText (items.map String.toList) :=
  String.toList_intercalate

theorem toList_children (key : String) :
    (commaList (Inner.children w.print .expression n key)).toList
      = listText ((n.children key).map fun c => (w.expression c).toList) := by
  rw [toList_commaList, Inner.children, List.map_map]
  rfl

theorem toList_holes (key : String) :
    (commaList (Inner.holes w.print .expression n key)).toList
      = listText ((n.optionalChildren key).map fun m => ((m.map w.expression).getD "").toList) := by
  rw [toList_commaList, Inner.holes, List.map_map]
  rfl

theorem toList_unary {isPrefix : Bool} {operator : String} {operand : Node → Prop}
    {text : List Char} (h : UnaryAt isPrefix operator operand n)
    (each : ∀ c, operand c → (w.expression c).toList = text) :
    (w.expression n).toList =
      if isPrefix = false then text ++ operator.toList
      else if operator = "delete" then "delete ".toList ++ text
      else operator.toList ++ text := by
  obtain ⟨kind, position, word, inside⟩ := h
  have text := toList_child w inside each
  rw [expression_eq, expressionLayout]
  simp only [kind, unaryLayout, position, word]
  cases isPrefix with
  | false => simp [text]
  | true =>
    by_cases delete : operator = "delete"
    · simp [delete, text]
    · simp [delete, text]

theorem toList_signed {inner : Node → Prop} {text : List Char}
    (each : ∀ c, inner c → (w.expression c).toList = text) (signs : List Sign) :
    ∀ n, SignedAt inner signs n → (w.expression n).toList = signsText signs ++ text := by
  induction signs with
  | nil => exact each
  | cons sign signs ih =>
    intro n h
    have cons : signsText (sign :: signs) = sign.text ++ signsText signs := List.flatMap_cons
    rw [toList_unary w h ih, if_neg (by simp), cons, List.append_assoc]
    cases sign <;> simp [Sign.operator, Sign.text]

/-- Two operands around an operator. -/
theorem toList_binary {left right operator : String} {p q : Node → Prop} {text text' : List Char}
    (hl : n.HasChild left p) (hr : n.HasChild right q) (word : n.string "operator" = operator)
    (eachLeft : ∀ c, p c → (w.expression c).toList = text)
    (eachRight : ∀ c, q c → (w.expression c).toList = text') :
    (binaryLayout w.print n left right).toList
      = text ++ ' ' :: (operator.toList ++ ' ' :: text') := by
  simp [binaryLayout, toList_child w hl eachLeft, toList_child w hr eachRight, word]

mutual

theorem Primary.At.toList_expression : (p : Primary) → (n : Node) → p.At n →
    (w.expression n).toList = p.text
  | .name x, n, h => by
    rw [Primary.At] at h
    obtain ⟨kind, name⟩ := h
    rw [expression_eq, expressionLayout, Primary.text]
    simp only [kind, name]
  | .number value unit, n, h => by
    rw [Primary.At] at h
    obtain ⟨kind, form, spelled, denomination⟩ := h
    rw [expression_eq, expressionLayout]
    simp only [kind, literalLayout, form, denomination]
    cases unit with
    | none => simp [Primary.text, spelled]
    | some unit => simp [Primary.text, spelled]
  | .member base field, n, h => by
    rw [Primary.At] at h
    obtain ⟨kind, inside, name⟩ := h
    have base := toList_child w inside (Primary.At.toList_expression base)
    rw [expression_eq, expressionLayout, Primary.text]
    simp [kind, base, name]
  | .index base place, n, h => by
    rw [Primary.At] at h
    obtain ⟨kind, inside, there⟩ := h
    have base := toList_child w inside (Primary.At.toList_expression base)
    have place := toList_child w there (Expr.At.toList_expression place)
    rw [expression_eq, expressionLayout, Primary.text]
    simp [kind, base, place]
  | .whole base, n, h => by
    rw [Primary.At] at h
    obtain ⟨kind, inside, absent⟩ := h
    have base := toList_child w inside (Primary.At.toList_expression base)
    rw [expression_eq, expressionLayout, Primary.text]
    have none : Inner.child w.print .expression n "indexExpression" = "" := by
      rw [Inner.child, Inner.child?, absent]
      rfl
    simp [kind, base, none]
  | .call callee arguments, n, h => by
    rw [Primary.At] at h
    obtain ⟨kind, inside, positional, given⟩ := h
    have callee := toList_child w inside (Primary.At.toList_expression callee)
    have list := toList_each arguments _ given
    rw [expression_eq, expressionLayout, Primary.text]
    simp [kind, callee, callArguments, positional, Solidity.arguments, toList_children, list]
  | .array components, n, h => by
    rw [Primary.At] at h
    obtain ⟨kind, inline, ms, items, given⟩ := h
    have list := toList_each components _ given
    rw [expression_eq, expressionLayout, Primary.text]
    have list : List.map (fun m => ((Option.map w.expression m).getD "").toList) (ms.map some)
        = eachText components := by
      rw [List.map_map]
      exact list
    simp only [kind, tupleLayout, inline, if_true, String.toList_append, toList_holes, items, list]
    simp
  | .nothing, n, h => by
    rw [Primary.At] at h
    obtain ⟨kind, inline, items⟩ := h
    rw [expression_eq, expressionLayout, Primary.text]
    simp [kind, tupleLayout, inline, toList_holes, items, listText]
  | .parens inner, n, h => by
    rw [Primary.At] at h
    obtain ⟨kind, inline, m, items, given⟩ := h
    have inside := Expr.At.toList_expression inner m given
    rw [expression_eq, expressionLayout, Primary.text]
    simp [kind, tupleLayout, inline, toList_holes, items, listText, inside]
  | .tuple first second more, n, h => by
    rw [Primary.At] at h
    obtain ⟨kind, inline, m, m', ms, items, one, two, others⟩ := h
    have one := Component.At.toList_expression first m one
    have two := Component.At.toList_expression second m' two
    have others := toList_eachComponent more ms others
    rw [expression_eq, expressionLayout, Primary.text]
    simp [kind, tupleLayout, inline, toList_holes, items, one, two, others]

theorem Operand.At.toList_expression : (o : Operand) → (n : Node) → o.At n →
    (w.expression n).toList = o.text
  | .mk signs core none, n, h => by
    rw [Operand.At] at h
    rw [Operand.text]
    exact toList_signed w (Primary.At.toList_expression core) signs n h
  | .mk signs core (some step), n, h => by
    rw [Operand.At] at h
    rw [Operand.text]
    refine toList_signed w (fun c hc => ?_) signs n h
    rw [toList_unary w hc (Primary.At.toList_expression core), if_pos rfl]

/-- **The text of a node is the text of its tree.** -/
theorem Expr.At.toList_expression : (e : Expr) → (n : Node) → e.At n →
    (w.expression n).toList = e.text
  | .operand o, n, h => by
    rw [Expr.At] at h
    rw [Expr.text]
    exact Operand.At.toList_expression o n h
  | .binary left operator right, n, h => by
    rw [Expr.At] at h
    obtain ⟨kind, word, hl, hr⟩ := h
    rw [expression_eq, expressionLayout, Expr.text]
    simp only [kind]
    exact toList_binary w hl hr word (Operand.At.toList_expression left)
      (Operand.At.toList_expression right)
  | .assign left operator right, n, h => by
    rw [Expr.At] at h
    obtain ⟨kind, word, hl, hr⟩ := h
    rw [expression_eq, expressionLayout, Expr.text]
    simp only [kind]
    exact toList_binary w hl hr word (Operand.At.toList_expression left)
      (Operand.At.toList_expression right)
  | .conditional condition yes no, n, h => by
    rw [Expr.At] at h
    obtain ⟨kind, hc, hy, hn⟩ := h
    have condition := toList_child w hc (Operand.At.toList_expression condition)
    have yes := toList_child w hy (Operand.At.toList_expression yes)
    have no := toList_child w hn (Operand.At.toList_expression no)
    rw [expression_eq, expressionLayout, Expr.text]
    simp [kind, condition, yes, no]

theorem Component.At.toList_expression : (c : Component) → (m : Option Node) → c.At m →
    ((m.map w.expression).getD "").toList = c.text
  | .missing, m, h => by
    rw [Component.At] at h
    subst h
    rfl
  | .given e, m, h => by
    rw [Component.At] at h
    obtain ⟨c, rfl, given⟩ := h
    exact Expr.At.toList_expression e c given

theorem toList_each : (es : List Expr) → (ns : List Node) → AllAt es ns →
    ns.map (fun n => (w.expression n).toList) = eachText es
  | [], ns, h => by
    rw [AllAt] at h
    subst h
    rfl
  | e :: es, ns, h => by
    rw [AllAt] at h
    obtain ⟨m, ms, rfl, head, tail⟩ := h
    rw [List.map_cons, eachText, Expr.At.toList_expression e m head, toList_each es ms tail]

theorem toList_eachComponent : (cs : List Component) → (ms : List (Option Node)) →
    AllComponentsAt cs ms →
    ms.map (fun m => ((m.map w.expression).getD "").toList) = eachComponentText cs
  | [], ms, h => by
    rw [AllComponentsAt] at h
    subst h
    rfl
  | c :: cs, ms, h => by
    rw [AllComponentsAt] at h
    obtain ⟨m, ms', rfl, head, tail⟩ := h
    rw [List.map_cons, eachComponentText, Component.At.toList_expression c m head,
      toList_eachComponent cs ms' tail]

end

end FuzzBundle.Solidity.Parenthesized
