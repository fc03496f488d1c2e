/-
  FuzzBundle.Solidity.Pragma — version constraints.

  A pragma holds its constraint as tokens, with operators and parts of a version apart.
  `constraint` writes them with one blank before each comparator that follows another one, and
  blanks around `||`. `minorVersion?` is the number after the first `0.` of a constraint, which
  stands for the version of the language that the source is written in.
-/
import FuzzBundle.Ast.Node

namespace FuzzBundle.Solidity.Pragma

/-- Whether a token begins with a comparison operator. -/
def isOperator (token : String) : Bool :=
  match token.toList with
  | c :: _ => c == '<' || c == '>' || c == '=' || c == '^' || c == '~'
  | [] => false

/-- A constraint as far as it is written, and whether a comparator may follow without a blank. -/
structure State where
  written : String := ""
  open_ : Bool := true

/-- Writes one more token. -/
def State.push (s : State) (token : String) : State :=
  if token = "||" then ⟨s.written ++ " || ", true⟩
  else
    let operator := isOperator token
    ⟨s.written ++ (if operator ∧ ¬ s.open_ then " " else "") ++ token, operator⟩

/-- The text of a constraint. -/
def constraint (tokens : List String) : String := (tokens.foldl State.push {}).written

/-- The text of a pragma. -/
def layout (n : Node) : String :=
  match n.strings "literals" with
  | [] => ""
  | name :: tokens =>
    let value := constraint tokens
    if value = "" then "pragma " ++ name ++ ";" else "pragma " ++ name ++ " " ++ value ++ ";"

/-- What follows the first `0.` of a text. -/
def afterZeroPoint? : List Char → Option (List Char)
  | [] => none
  | c :: rest =>
    match c, rest with
    | '0', '.' :: after => some after
    | _, rest => afterZeroPoint? rest

/-- The number after the first `0.` of a constraint, if there is one of 64 bits. -/
def minorVersion? (constraint : List Char) : Option Nat :=
  (afterZeroPoint? constraint).bind fun after =>
    Text.bounded? Text.word64 (after.takeWhile Char.isDigit)

/-- The tokens of the first pragma of a source unit that names the language, joined. -/
def languageConstraint? (unit : Node) : Option String :=
  (unit.membersOf .pragmaDirective).findSome? fun pragma =>
    match pragma.strings "literals" with
    | "solidity" :: tokens => some (String.join tokens)
    | _ => none

/-- Whether a source unit is written for a version of the language that wants a visibility on
constructors. -/
def wantsConstructorVisibility (unit : Node) : Bool :=
  match (languageConstraint? unit).bind (fun constraint => minorVersion? constraint.toList) with
  | some minor => minor < 7
  | none => false

end FuzzBundle.Solidity.Pragma
