/-
  FuzzBundle.Ast.TreeError — why the trees of a compiler output cannot be used.
-/

namespace FuzzBundle

/-- What is wrong with the trees of an output. -/
inductive TreeError where
  | missingTree (file : String)
  | unexpectedRoot (found : String)
  | unnamedContract (file : String)
  deriving DecidableEq, Repr

/-- The text of an error. -/
def TreeError.message : TreeError → String
  | .missingTree file => "No AST in compiler output for " ++ file
  | .unexpectedRoot found => "Expected SourceUnit node, found " ++ found
  | .unnamedContract file => "ContractDefinition without a name in " ++ file

end FuzzBundle
