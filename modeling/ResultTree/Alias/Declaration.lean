import ResultTree.Alias.Table
import ResultTree.Document.Scope
import ResultTree.Stylesheet.Registration

namespace ResultTree

/-! An alias declaration names two prefixes. They are resolved where the
declaration stands, and `#default` names the default namespace there. -/

structure AliasDeclaration where
  node : NodeId
  line : Nat
  source : String
  target : String
deriving DecidableEq, Repr

namespace AliasDeclaration

/-- The URI that a written prefix denotes at a node. An empty one denotes
nothing. -/
def denoted? (document : Document) (node : NodeId) (written : String) :
    Reading (Option String) := do
  let nsPrefix := if written = "#default" then none else some written
  let uri ← document.uri? (← document.findPrefix node nsPrefix)
  return uri.filter (· ≠ "")

def required (document : Document) (node : NodeId) (line : Nat) (name : String) :
    Attempt Diagnostic String := do
  match ← document.attributeValue? node name transformUri with
  | some value => return value
  | none => throw (.missingAliasAttribute node line name)

def bound (document : Document) (node : NodeId) (line : Nat) (written : String) :
    Attempt Diagnostic String := do
  match ← denoted? document node written with
  | some uri => return uri
  | none => throw (.unboundPrefix .aliasPrefixUnbound node line written)

def read (document : Document) (node : NodeId) : Attempt Diagnostic AliasDeclaration := do
  let line ← document.line node
  let stylesheetPrefix ← required document node line "stylesheet-prefix"
  let resultPrefix ← required document node line "result-prefix"
  let source ← bound document node line stylesheetPrefix
  let target ← bound document node line resultPrefix
  return { node, line, source, target }

/-- The remark that a declaration replaces an earlier one. The line of the
earlier declaration is looked up in the document of the later one. -/
def replacement (document : Document) (declaration : AliasDeclaration) (earlier : Alias) :
    Reading Diagnostic := do
  let line ← document.line earlier.declaredBy
  return Diagnostic.warning .aliasRedeclared
    |>.withMessage ("namespace " ++ declaration.source ++ " was already aliased to " ++
      earlier.target)
    |>.withLabel declaration.node declaration.line
      ("now aliased to " ++ declaration.target)
    |>.withSecondaryLabel earlier.declaredBy line "first aliased here"
    |>.withNote "the last declaration wins"

end AliasDeclaration

namespace AliasTable

def register (table : AliasTable) (document : Document) (node : NodeId) :
    Reading (Registration AliasTable) := do
  match ← (AliasDeclaration.read document node).run with
  | .error diagnostic => return .rejected table [diagnostic]
  | .ok declaration =>
      let changed := table.declare declaration.source ⟨declaration.target, node⟩
      match table.aliases.get? declaration.source with
      | none => return .accept changed []
      | some earlier =>
          if earlier.target = declaration.target then return .accept changed []
          else return .accept changed [← declaration.replacement document earlier]

end AliasTable

end ResultTree
