import ResultTree.Key.Grammar
import ResultTree.Key.Matching
import ResultTree.Key.Name
import ResultTree.Key.Selection
import ResultTree.OrderedMap

namespace ResultTree.Key

/-! A definition gives a key name a match pattern and a use expression: the
nodes that the pattern accepts are listed under the values that the expression
selects. Definitions of one name add up. -/

structure Definition where
  name : Name
  matchSource : String
  useSource : String
  pattern : Pattern
  use : UseExpression
deriving DecidableEq, Repr

inductive DefinitionError
  | invalidMatch (source : String) (reason : SyntaxError)
  | invalidUse (source : String) (reason : SyntaxError)
deriving DecidableEq, Repr

namespace DefinitionError

def isMatch : DefinitionError → Bool
  | .invalidMatch _ _ => true
  | .invalidUse _ _ => false

def source : DefinitionError → String
  | .invalidMatch source _ | .invalidUse source _ => source

def reason : DefinitionError → SyntaxError
  | .invalidMatch _ reason | .invalidUse _ reason => reason

def message : DefinitionError → String
  | .invalidMatch source reason =>
      "invalid match pattern `" ++ source ++ "`: " ++ reason.message
  | .invalidUse source reason =>
      "invalid use expression `" ++ source ++ "`: " ++ reason.message

end DefinitionError

namespace Definition

def compile (name : Name) (matchSource useSource : String) (scope : PrefixScope) :
    Attempt DefinitionError Definition := do
  let pattern ← (Pattern.parse matchSource scope).adapt (.invalidMatch matchSource)
  let use ← (UseExpression.parse useSource scope).adapt (.invalidUse useSource)
  return { name, matchSource, useSource, pattern, use }

def accepts (definition : Definition) (document : Document) (id : NodeId) :
    Reading Bool :=
  definition.pattern.accepts document id

def values (definition : Definition) (document : Document) (id : NodeId) :
    Reading (List String) :=
  definition.use.values document id

end Definition

/-- All definitions, by name, those of one name in the order of their arrival. -/
abbrev Definitions := OrderedMap Name (List Definition)

namespace Definitions

def add (definitions : Definitions) (definition : Definition) : Definitions :=
  definitions.update definition.name fun present => present.getD [] ++ [definition]

def define (definitions : Definitions) (name : Name) (matchSource useSource : String)
    (scope : PrefixScope) : Attempt DefinitionError Definitions := do
  return definitions.add (← Definition.compile name matchSource useSource scope)

end Definitions

end ResultTree.Key
